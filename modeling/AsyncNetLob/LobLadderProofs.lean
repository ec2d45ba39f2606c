import AsyncNetLob.LobLadder

/-! # What a call can do to a ladder

    `addOrder_cases` lists the ways a call to `addOrder` ends.  Every invariant of
    the book as a value is read off this list and off three facts about each
    loop:

    * what is left of a queue, or of a side, was there before (`fillQueue_mem`,
      `sweep_mem`, `sweep_prices`);
    * a taker with a remainder has emptied every level it reached
      (`sweep_open`);
    * so what is left of the other side is beyond its limit (`sweep_beyond`).

    `Ladder.WF` is the invariant: levels in order and non-empty, remainders
    positive and within the quantities, ids unique, the book uncrossed, and
    not more orders or levels than slots. -/

namespace Lob

/-! ## The arithmetic of one fill -/

theorem quantity_pos {q : Quantity} : q > 0 ↔ 0 < q.toNat := UInt32.lt_iff_toNat_lt

theorem quantity_zero {q : Quantity} : q = 0 ↔ q.toNat = 0 :=
  UInt32.toNat_inj.symm

theorem min_toNat (a b : Quantity) : (min a b).toNat = min a.toNat b.toNat := by
  show (if a ≤ b then a else b).toNat = _
  by_cases h : a ≤ b
  · rw [if_pos h, Nat.min_eq_left (UInt32.le_iff_toNat_le.mp h)]
  · have hlt := UInt32.lt_iff_toNat_lt.mp (UInt32.not_le.mp h)
    rw [if_neg h, Nat.min_eq_right (Nat.le_of_lt hlt)]

/-- What a fill leaves of the taker does not underflow. -/
theorem taker_toNat (left rem : Quantity) :
    (left - min left rem).toNat = left.toNat - rem.toNat := by
  rw [UInt32.toNat_sub_of_le, min_toNat]
  · omega
  · rw [UInt32.le_iff_toNat_le, min_toNat]
    omega

/-- What a fill leaves of the maker does not underflow. -/
theorem maker_toNat (left rem : Quantity) :
    (rem - min left rem).toNat = rem.toNat - left.toNat := by
  rw [UInt32.toNat_sub_of_le, min_toNat]
  · omega
  · rw [UInt32.le_iff_toNat_le, min_toNat]
    omega

/-! ## One queue -/

section Queue

variable {now : Nat → Timestamp} {taker : OrderId} {price : Price} {count : Nat}
  {left volume : Quantity} {rs : List RestingOrder}

/-- `r'` is what is left of the resting order `r`. -/
structure LeftOf (r' r : RestingOrder) : Prop where
  id       : r'.id = r.id
  quantity : r'.quantity = r.quantity
  le       : r'.remainingQty ≤ r.remainingQty

theorem LeftOf.refl (r : RestingOrder) : LeftOf r r :=
  ⟨rfl, rfl, UInt32.le_refl _⟩

/-- Every order in the filled queue is what is left of an order of the queue,
    and not exhausted. -/
theorem fillQueue_mem (hlive : ∀ r ∈ rs, 0 < r.remainingQty) {r' : RestingOrder}
    (h : r' ∈ (fillQueue now taker price count left volume rs).orders) :
    ∃ r ∈ rs, LeftOf r' r ∧ 0 < r'.remainingQty := by
  induction rs generalizing count left volume with
  | nil => cases h
  | cons r rs ih =>
      have hlive' : ∀ r ∈ rs, 0 < r.remainingQty :=
        fun x hx => hlive x (List.mem_cons_of_mem _ hx)
      by_cases hpos : left > 0
      · by_cases hz : r.remainingQty - min left r.remainingQty = 0
        · rw [fillQueue_exhaust hpos hz] at h
          obtain ⟨x, hx, hleft⟩ := ih hlive' h
          exact ⟨x, List.mem_cons_of_mem _ hx, hleft⟩
        · rw [fillQueue_leaves hpos hz] at h
          rcases List.mem_cons.mp h with rfl | h
          · refine ⟨r, List.mem_cons_self, ⟨rfl, rfl, ?_⟩, ?_⟩
            · rw [UInt32.le_iff_toNat_le]
              show (r.remainingQty - min left r.remainingQty).toNat ≤ _
              rw [maker_toNat]
              omega
            · rw [quantity_zero] at hz
              exact quantity_pos.mpr (Nat.pos_of_ne_zero hz)
          · obtain ⟨x, hx, hleft⟩ := ih hlive' h
            exact ⟨x, List.mem_cons_of_mem _ hx, hleft⟩
      · rw [fillQueue_done hpos] at h
        exact ⟨r', h, LeftOf.refl r', hlive r' h⟩

/-- A fill does not add to the taker. -/
theorem fillQueue_left_le :
    (fillQueue now taker price count left volume rs).left.toNat ≤ left.toNat := by
  induction rs generalizing count left volume with
  | nil => exact Nat.le_refl _
  | cons r rs ih =>
      by_cases hpos : left > 0
      · rw [fillQueue, if_pos hpos]
        refine Nat.le_trans ih ?_
        rw [taker_toNat]
        omega
      · rw [fillQueue_done hpos]

/-- A taker with a remainder has emptied the queue. -/
theorem fillQueue_open (h : (fillQueue now taker price count left volume rs).left ≠ 0) :
    (fillQueue now taker price count left volume rs).orders = [] := by
  induction rs generalizing count left volume with
  | nil => rfl
  | cons r rs ih =>
      by_cases hpos : left > 0
      · by_cases hz : r.remainingQty - min left r.remainingQty = 0
        · rw [fillQueue_exhaust hpos hz] at h ⊢
          exact ih h
        · -- a maker with a remainder has exhausted the taker
          rw [fillQueue_leaves hpos hz] at h
          have hzero : left - min left r.remainingQty = 0 := by
            rw [quantity_zero, maker_toNat] at hz
            rw [quantity_zero, taker_toNat]
            omega
          rw [hzero] at h
          exact absurd (by rw [fillQueue_done (by decide)]) h
      · rw [fillQueue_done hpos] at h
        rw [quantity_pos] at hpos
        rw [Ne, quantity_zero] at h
        exact absurd (by simpa using hpos) h

end Queue

/-! ## One side -/

section Sweep

variable {now : Nat → Timestamp} {taker : OrderId} {beyond : Price → Bool}
  {count : Nat} {left : Quantity} {rungs : List Rung}

/-- Every level of the swept side is what is left of a level of the side. -/
theorem sweep_mem {lv' : Rung} (h : lv' ∈ (sweep now taker beyond count left rungs).rungs)
    (hne : ∀ lv ∈ rungs, lv.orders ≠ [])
    (hlive : ∀ lv ∈ rungs, ∀ r ∈ lv.orders, 0 < r.remainingQty) :
    ∃ lv ∈ rungs, lv'.price = lv.price ∧ lv'.orders ≠ []
      ∧ ∀ r' ∈ lv'.orders, ∃ r ∈ lv.orders, LeftOf r' r ∧ 0 < r'.remainingQty := by
  induction rungs generalizing count left with
  | nil => cases h
  | cons lv rungs ih =>
      have hne' : ∀ lv ∈ rungs, lv.orders ≠ [] :=
        fun x hx => hne x (List.mem_cons_of_mem _ hx)
      have hlive' : ∀ lv ∈ rungs, ∀ r ∈ lv.orders, 0 < r.remainingQty :=
        fun x hx => hlive x (List.mem_cons_of_mem _ hx)
      by_cases hgo : left > 0 ∧ beyond lv.price = false
      · by_cases hnil : (fillQueue now taker lv.price count left lv.totalVolume
            lv.orders).orders = []
        · rw [sweep_emptied hgo rfl hnil] at h
          obtain ⟨x, hx, hleft⟩ := ih h hne' hlive'
          exact ⟨x, List.mem_cons_of_mem _ hx, hleft⟩
        · rw [sweep_kept hgo rfl hnil] at h
          rcases List.mem_cons.mp h with rfl | h
          · exact ⟨lv, List.mem_cons_self, rfl, hnil, fun r' hr' =>
              fillQueue_mem (hlive lv List.mem_cons_self) hr'⟩
          · obtain ⟨x, hx, hleft⟩ := ih h hne' hlive'
            exact ⟨x, List.mem_cons_of_mem _ hx, hleft⟩
      · rw [sweep_stop hgo] at h
        refine ⟨lv', h, rfl, hne lv' h, fun r hr => ?_⟩
        exact ⟨r, hr, LeftOf.refl r, hlive lv' h r hr⟩

/-- A sweep adds no level. -/
theorem sweep_prices : ((sweep now taker beyond count left rungs).rungs.map
    Rung.price).Sublist (rungs.map Rung.price) := by
  induction rungs generalizing count left with
  | nil => exact List.Sublist.refl _
  | cons lv rungs ih =>
      by_cases hgo : left > 0 ∧ beyond lv.price = false
      · by_cases hnil : (fillQueue now taker lv.price count left lv.totalVolume
            lv.orders).orders = []
        · rw [sweep_emptied hgo rfl hnil]
          exact ih.cons _
        · rw [sweep_kept hgo rfl hnil]
          exact ih.cons_cons _
      · rw [sweep_stop hgo]

/-- An exhausted taker sweeps nothing. -/
theorem sweep_done (h : ¬ left > 0) :
    sweep now taker beyond count left rungs = ⟨[], left, rungs⟩ := by
  cases rungs with
  | nil => rfl
  | cons lv rungs => exact sweep_stop fun hgo => h hgo.1

/-- A sweep does not add to the taker. -/
theorem sweep_left_le :
    (sweep now taker beyond count left rungs).left.toNat ≤ left.toNat := by
  induction rungs generalizing count left with
  | nil => exact Nat.le_refl _
  | cons lv rungs ih =>
      by_cases hgo : left > 0 ∧ beyond lv.price = false
      · rw [sweep, if_pos hgo]
        exact Nat.le_trans ih fillQueue_left_le
      · rw [sweep_stop hgo]

/-- **A TAKER WITH A REMAINDER** has emptied every level it reached, and stands
    before a level beyond its limit, if any. -/
theorem sweep_open (hne : ∀ lv ∈ rungs, lv.orders ≠ [])
    (h : (sweep now taker beyond count left rungs).left ≠ 0) :
    ∃ gone, rungs = gone ++ (sweep now taker beyond count left rungs).rungs
      ∧ (∀ lv ∈ gone, beyond lv.price = false)
      ∧ (∀ lv, (sweep now taker beyond count left rungs).rungs.head? = some lv →
          beyond lv.price = true)
      ∧ (gone = [] → sweep now taker beyond count left rungs = ⟨[], left, rungs⟩) := by
  induction rungs generalizing count left with
  | nil => exact ⟨[], rfl, by simp, by simp [sweep], fun _ => rfl⟩
  | cons lv rungs ih =>
      by_cases hgo : left > 0 ∧ beyond lv.price = false
      · by_cases hnil : (fillQueue now taker lv.price count left lv.totalVolume
            lv.orders).orders = []
        · rw [sweep_emptied hgo rfl hnil] at h ⊢
          obtain ⟨gone, hsplit, hgone, hhead, -⟩ :=
            ih (fun x hx => hne x (List.mem_cons_of_mem _ hx)) h
          refine ⟨lv :: gone, congrArg (lv :: ·) hsplit, ?_, hhead, by simp⟩
          intro x hx
          rcases List.mem_cons.mp hx with rfl | hx
          · exact hgo.2
          · exact hgone x hx
        · -- a level with makers has exhausted the taker
          rw [sweep_kept hgo rfl hnil] at h
          have hzero : (fillQueue now taker lv.price count left lv.totalVolume
              lv.orders).left = 0 := by
            by_contra hleft
            exact hnil (fillQueue_open hleft)
          rw [hzero, sweep_done (by decide)] at h
          exact absurd rfl h
      · rw [sweep_stop hgo] at h ⊢
        have hpos : left > 0 := by
          rw [quantity_pos]
          rw [Ne, quantity_zero] at h
          exact Nat.pos_of_ne_zero h
        refine ⟨[], rfl, by simp, ?_, fun _ => rfl⟩
        intro x hx
        obtain rfl : lv = x := by simpa using hx
        simpa [hpos] using hgo

end Sweep

/-! ## Well-formed sides -/

/-- The levels of a side: best price first, none empty, and every resting order
    with a positive remainder within its quantity. -/
structure SideWF (side : Side) (rungs : List Rung) : Prop where
  sorted   : (rungs.map Rung.price).Pairwise side.comparator
  nonempty : ∀ lv ∈ rungs, lv.orders ≠ []
  live     : ∀ lv ∈ rungs, ∀ r ∈ lv.orders,
    0 < r.remainingQty ∧ r.remainingQty ≤ r.quantity

section Sides

variable {side : Side} {rungs : List Rung}

theorem SideWF.nil : SideWF side [] :=
  ⟨List.Pairwise.nil, by simp, by simp⟩

/-- Sweeping keeps a side well-formed. -/
theorem SideWF.sweep (h : SideWF side rungs) {now : Nat → Timestamp} {taker : OrderId}
    {beyond : Price → Bool} {count : Nat} {left : Quantity} :
    SideWF side (sweep now taker beyond count left rungs).rungs := by
  have hmem : ∀ lv' ∈ (Lob.sweep now taker beyond count left rungs).rungs, _ :=
    fun lv' hlv' => sweep_mem hlv' h.nonempty (fun lv hlv r hr => (h.live lv hlv r hr).1)
  refine ⟨h.sorted.sublist sweep_prices, ?_, ?_⟩
  · intro lv' hlv'
    obtain ⟨-, -, -, hne, -⟩ := hmem lv' hlv'
    exact hne
  · intro lv' hlv' r' hr'
    obtain ⟨lv, hlv, -, -, hleft⟩ := hmem lv' hlv'
    obtain ⟨r, hr, hof, hpos⟩ := hleft r' hr'
    refine ⟨hpos, ?_⟩
    rw [hof.quantity]
    exact UInt32.le_trans hof.le (h.live lv hlv r hr).2

/-- What is left of the other side after a sweep that left a remainder is
    beyond the limit. -/
theorem SideWF.sweep_beyond (h : SideWF side rungs) {now : Nat → Timestamp}
    {taker : OrderId} {limit : Price} {type : OrderType} {count : Nat} {left : Quantity}
    (hlimit : type = .limit)
    (hleft : (Lob.sweep now taker (beyondLimit side limit type) count left rungs).left ≠ 0) :
    ∀ lv ∈ (Lob.sweep now taker (beyondLimit side limit type) count left rungs).rungs,
      side.comparator limit lv.price := by
  obtain ⟨gone, -, -, hhead, -⟩ := sweep_open h.nonempty hleft
  have hsorted : ((Lob.sweep now taker (beyondLimit side limit type) count left
      rungs).rungs.map Rung.price).Pairwise side.comparator := h.sweep.sorted
  generalize Lob.sweep now taker (beyondLimit side limit type) count left rungs = m at *
  cases hm : m.rungs with
  | nil =>
      intro lv hlv
      cases hlv
  | cons lv₀ rest =>
      have hlv₀ : side.comparator limit lv₀.price := by
        have hb := hhead lv₀ (by rw [hm]; rfl)
        simpa [beyondLimit, hlimit] using hb
      rw [hm, List.map_cons, List.pairwise_cons] at hsorted
      intro lv hlv
      rcases List.mem_cons.mp hlv with rfl | hlv
      · exact hlv₀
      · exact trans_of side.comparator hlv₀ (hsorted.1 _ (List.mem_map_of_mem hlv))

/-- **INSERTION** joins the level at the price, or opens one at its place. -/
theorem insertOrder_cases (hs : (rungs.map Rung.price).Pairwise side.comparator)
    (price : Price) (r : RestingOrder) :
    (∃ A lv B, rungs = A ++ lv :: B ∧ lv.price = price
      ∧ insertOrder side price r rungs = A ++ { lv with
          totalVolume := lv.totalVolume + r.remainingQty, orders := lv.orders ++ [r] } :: B)
    ∨ (∃ A B, rungs = A ++ B ∧ (∀ lv ∈ A, side.comparator lv.price price)
      ∧ (∀ lv ∈ B, side.comparator price lv.price)
      ∧ insertOrder side price r rungs = A ++ ⟨price, r.remainingQty, [r]⟩ :: B) := by
  induction rungs with
  | nil => exact Or.inr ⟨[], [], rfl, by simp, by simp, rfl⟩
  | cons lv rungs ih =>
      rw [List.map_cons, List.pairwise_cons] at hs
      -- the first level is worse, the same, or better
      by_cases hlt : side.comparator price lv.price
      · refine Or.inr ⟨[], lv :: rungs, rfl, by simp, ?_, ?_⟩
        · intro x hx
          rcases List.mem_cons.mp hx with rfl | hx
          · exact hlt
          · exact trans_of side.comparator hlt (hs.1 _ (List.mem_map_of_mem hx))
        · rw [insertOrder, if_pos hlt, List.nil_append]
      · by_cases heq : price = lv.price
        · refine Or.inl ⟨[], lv, rungs, rfl, heq.symm, ?_⟩
          rw [insertOrder, if_neg hlt, if_pos heq, List.nil_append]
        · have hbetter : side.comparator lv.price price := by
            by_contra hn
            exact heq (SortedMap.key_eq hlt hn)
          have hins : insertOrder side price r (lv :: rungs)
              = lv :: insertOrder side price r rungs := by
            rw [insertOrder, if_neg hlt, if_neg heq]
          rcases ih hs.2 with ⟨A, lv₁, B, hsplit, hp, h⟩ | ⟨A, B, hsplit, hA, hB, h⟩
          · refine Or.inl ⟨lv :: A, lv₁, B, congrArg (lv :: ·) hsplit, hp, ?_⟩
            rw [hins, h, List.cons_append]
          · refine Or.inr ⟨lv :: A, B, congrArg (lv :: ·) hsplit, ?_, hB, ?_⟩
            · intro x hx
              rcases List.mem_cons.mp hx with rfl | hx
              · exact hbetter
              · exact hA x hx
            · rw [hins, h, List.cons_append]

/-- Insertion keeps a side well-formed. -/
theorem SideWF.insert (h : SideWF side rungs) (price : Price) {r : RestingOrder}
    (hr : 0 < r.remainingQty ∧ r.remainingQty ≤ r.quantity) :
    SideWF side (insertOrder side price r rungs) := by
  rcases insertOrder_cases h.sorted price r with ⟨A, lv, B, hsplit, -, hins⟩
    | ⟨A, B, hsplit, hA, hB, hins⟩
  · rw [hins]
    have hlv : lv ∈ rungs := by simp [hsplit]
    refine ⟨?_, ?_, ?_⟩
    · have hs := h.sorted
      rw [hsplit] at hs
      simpa using hs
    · intro x hx
      rcases List.mem_append.mp hx with hx | hx
      · exact h.nonempty x (by simp [hsplit, hx])
      · rcases List.mem_cons.mp hx with rfl | hx
        · simp
        · exact h.nonempty x (by simp [hsplit, hx])
    · intro x hx r' hr'
      rcases List.mem_append.mp hx with hx | hx
      · exact h.live x (by simp [hsplit, hx]) r' hr'
      · rcases List.mem_cons.mp hx with rfl | hx
        · rcases List.mem_append.mp hr' with hr' | hr'
          · exact h.live lv hlv r' hr'
          · rw [List.mem_singleton.mp hr']
            exact hr
        · exact h.live x (by simp [hsplit, hx]) r' hr'
  · rw [hins]
    refine ⟨?_, ?_, ?_⟩
    · have hs := h.sorted
      rw [hsplit, List.map_append, List.pairwise_append] at hs
      obtain ⟨hsA, hsB, hAB⟩ := hs
      rw [List.map_append, List.map_cons]
      refine List.pairwise_append.mpr ⟨hsA, List.pairwise_cons.mpr ⟨?_, hsB⟩, ?_⟩
      · intro p hp
        obtain ⟨x, hx, rfl⟩ := List.mem_map.mp hp
        exact hB x hx
      · intro p hp p' hp'
        rcases List.mem_cons.mp hp' with rfl | hp'
        · obtain ⟨x, hx, rfl⟩ := List.mem_map.mp hp
          exact hA x hx
        · exact hAB p hp p' hp'
    · intro x hx
      rcases List.mem_append.mp hx with hx | hx
      · exact h.nonempty x (by simp [hsplit, hx])
      · rcases List.mem_cons.mp hx with rfl | hx
        · simp
        · exact h.nonempty x (by simp [hsplit, hx])
    · intro x hx r' hr'
      rcases List.mem_append.mp hx with hx | hx
      · exact h.live x (by simp [hsplit, hx]) r' hr'
      · rcases List.mem_cons.mp hx with rfl | hx
        · rw [List.mem_singleton.mp hr']
          exact hr
        · exact h.live x (by simp [hsplit, hx]) r' hr'

/-- Every level after a cancellation is a level before it, untouched or without
    one order. -/
theorem cancelIn_mem {id : OrderId} {lv' : Rung} (h : lv' ∈ cancelIn id rungs) :
    (lv' ∈ rungs ∧ ∀ x ∈ lv'.orders, x.id ≠ id)
      ∨ ∃ lv ∈ rungs, ∃ r ∈ lv.orders, r.id = id ∧ lv.without r = some lv' := by
  obtain ⟨lv, hlv, hkeep⟩ := List.mem_filterMap.mp h
  cases hfind : lv.orders.find? (fun x => x.id = id) with
  | none =>
      rw [hfind] at hkeep
      obtain rfl := Option.some.inj hkeep
      rw [List.find?_eq_none] at hfind
      exact Or.inl ⟨hlv, fun x hx => by simpa using hfind x hx⟩
  | some r =>
      rw [hfind] at hkeep
      refine Or.inr ⟨lv, hlv, r, List.mem_of_find?_eq_some hfind, ?_, hkeep⟩
      simpa using List.find?_some hfind

/-- What is left of a level that loses an order and keeps others. -/
theorem without_eq {lv lv' : Rung} {r : RestingOrder} (h : lv.without r = some lv') :
    lv'.orders ≠ [] ∧ lv' = ⟨lv.price, clampedVolume lv.totalVolume r.remainingQty,
      lv.orders.filter (fun x => x.id ≠ r.id)⟩ := by
  rw [Rung.without] at h
  by_cases hnil : lv.orders.filter (fun x => x.id ≠ r.id) = []
  · rw [if_pos hnil] at h
    cases h
  · rw [if_neg hnil] at h
    rw [← Option.some.inj h]
    exact ⟨hnil, rfl⟩

/-- The same, without the volume. -/
theorem cancelIn_level {id : OrderId} {lv' : Rung} (h : lv' ∈ cancelIn id rungs) :
    ∃ lv ∈ rungs, lv'.price = lv.price ∧ lv'.orders = lv.orders.filter (fun x => x.id ≠ id)
      ∧ (lv.orders ≠ [] → lv'.orders ≠ []) := by
  rcases cancelIn_mem h with ⟨hlv, hno⟩ | ⟨lv, hlv, r, -, rfl, hwithout⟩
  · refine ⟨lv', hlv, rfl, (List.filter_eq_self.mpr fun x hx => ?_).symm, fun h => h⟩
    simpa using hno x hx
  · obtain ⟨hne, rfl⟩ := without_eq hwithout
    exact ⟨lv, hlv, rfl, rfl, fun _ => hne⟩

/-- Cancelling keeps a side well-formed. -/
theorem SideWF.cancel (h : SideWF side rungs) (id : OrderId) :
    SideWF side (cancelIn id rungs) := by
  refine ⟨?_, ?_, ?_⟩
  · refine h.sorted.sublist ?_
    clear h
    induction rungs with
    | nil => exact List.Sublist.refl _
    | cons lv rungs ih =>
        have hcons : cancelIn id (lv :: rungs) = cancelIn id [lv] ++ cancelIn id rungs :=
          cancelIn_append id [lv] rungs
        rw [hcons, List.map_append, List.map_cons]
        -- a level stays with its price, or goes
        have hone : ((cancelIn id [lv]).map Rung.price).Sublist [lv.price] := by
          have hlen : (cancelIn id [lv]).length ≤ 1 := List.length_filterMap_le _ _
          match hlist : cancelIn id [lv] with
          | [] => exact List.nil_sublist _
          | [lv'] =>
              have hmem : lv' ∈ cancelIn id [lv] := by
                rw [hlist]
                exact List.mem_singleton_self lv'
              obtain ⟨x, hx, hp, -⟩ := cancelIn_level hmem
              rw [List.mem_singleton.mp hx] at hp
              simp [hp]
          | _ :: _ :: _ =>
              rw [hlist] at hlen
              simp at hlen
        exact hone.append ih
  · intro lv' hlv'
    obtain ⟨lv, hlv, -, -, hne⟩ := cancelIn_level hlv'
    exact hne (h.nonempty lv hlv)
  · intro lv' hlv' r hr
    obtain ⟨lv, hlv, -, ho, -⟩ := cancelIn_level hlv'
    rw [ho] at hr
    exact h.live lv hlv r (List.mem_of_mem_filter hr)

end Sides

/-! ## Queues of a side -/

/-- Cancelling filters every queue; levels it empties show nothing. -/
theorem cancelIn_flatMap {β : Type} {f : Price → List RestingOrder → List β}
    (hf : ∀ price, f price [] = []) (id : OrderId) (rungs : List Rung) :
    (cancelIn id rungs).flatMap (fun lv => f lv.price lv.orders)
      = rungs.flatMap fun lv => f lv.price (lv.orders.filter (fun x => x.id ≠ id)) := by
  induction rungs with
  | nil => rfl
  | cons lv rungs ih =>
      have hcons : cancelIn id (lv :: rungs) = cancelIn id [lv] ++ cancelIn id rungs :=
        cancelIn_append id [lv] rungs
      rw [hcons, List.flatMap_append, ih, List.flatMap_cons]
      congr 1
      cases hfind : lv.orders.find? (fun x => x.id = id) with
      | none =>
          rw [List.find?_eq_none] at hfind
          have hself : cancelIn id [lv] = [lv] := cancelIn_absent fun x hx r hr => by
            rw [List.mem_singleton.mp hx] at hr
            simpa using hfind r hr
          rw [hself, List.filter_eq_self.mpr fun x hx => by simpa using hfind x hx]
          simp
      | some r =>
          have hid : r.id = id := by simpa using List.find?_some hfind
          show (List.filterMap _ [lv]).flatMap _ = _
          rw [List.filterMap_cons, hfind]
          simp only [Rung.without, hid]
          by_cases hnil : lv.orders.filter (fun x => x.id ≠ id) = []
          · rw [if_pos hnil, hnil, hf]
            rfl
          · rw [if_neg hnil]
            simp

/-- The queue of a side loses exactly the cancelled id. -/
theorem cancelIn_orders (id : OrderId) (rungs : List Rung) :
    (cancelIn id rungs).flatMap Rung.orders
      = (rungs.flatMap Rung.orders).filter (fun x => x.id ≠ id) := by
  rw [List.filter_flatMap]
  exact cancelIn_flatMap (f := fun _ orders => orders) (fun _ => rfl) id rungs

/-- The queue of a side gains exactly the inserted order. -/
theorem insertOrder_orders {side : Side} {rungs : List Rung}
    (hs : (rungs.map Rung.price).Pairwise side.comparator) (price : Price)
    (r : RestingOrder) : ((insertOrder side price r rungs).flatMap Rung.orders).Perm
      (r :: rungs.flatMap Rung.orders) := by
  rcases insertOrder_cases hs price r with ⟨A, lv, B, hsplit, -, hins⟩
    | ⟨A, B, hsplit, -, -, hins⟩
  · rw [hins, hsplit, List.flatMap_append, List.flatMap_cons, List.flatMap_append,
      List.flatMap_cons, ← List.append_assoc, ← List.append_assoc, ← List.append_assoc]
    refine (List.perm_append_comm.append_right _).trans ?_
    rw [List.append_assoc, List.singleton_append, List.append_assoc]
  · rw [hins, hsplit, List.flatMap_append, List.flatMap_cons, List.flatMap_append]
    exact List.perm_middle

/-! ## The calls -/

section Calls

variable {now : Nat → Timestamp} {id : OrderId} {side : Side} {price : Price}
  {qty : Quantity} {type : OrderType} {a : Ladder}

/-- The ways a call to `addOrder` ends, with what is known in each of them. -/
inductive AddCase (now : Nat → Timestamp) (id : OrderId) (side : Side) (price : Price)
    (qty : Quantity) (type : OrderType) (a : Ladder) : Outcome → Ladder → Prop
  /-- No quantity, or the id rests already. -/
  | rejected (hbad : qty = 0 ∨ a.Rests id) :
      AddCase now id side price qty type a (.events []) a
  /-- No slot for the order. -/
  | refused (hqty : qty ≠ 0) (hid : ¬ a.Rests id) (hfull : a.orderSlots ≤ a.orderCount) :
      AddCase now id side price qty type a (.threw .poolExhausted) a
  /-- No slot for the level of the remainder. -/
  | leaked (hqty : qty ≠ 0) (hid : ¬ a.Rests id) (hroom : a.orderCount < a.orderSlots)
      (hleft : (a.swept now id side price qty type).left ≠ 0) (hlimit : type = .limit)
      (hlevel : ¬ (a.afterSweep side (a.swept now id side price qty type)).HasLevel
        side price)
      (hfull : a.levelSlots
        ≤ (a.afterSweep side (a.swept now id side price qty type)).levelCount) :
      AddCase now id side price qty type a (.threw .poolExhausted)
        (a.afterSweep side (a.swept now id side price qty type))
  /-- The remainder rests. -/
  | rested (hqty : qty ≠ 0) (hid : ¬ a.Rests id) (hroom : a.orderCount < a.orderSlots)
      (hleft : (a.swept now id side price qty type).left ≠ 0) (hlimit : type = .limit)
      (hlevel : (a.afterSweep side (a.swept now id side price qty type)).HasLevel side price
        ∨ (a.afterSweep side (a.swept now id side price qty type)).levelCount < a.levelSlots) :
      AddCase now id side price qty type a
        (.events (a.swept now id side price qty type).events)
        ((a.afterSweep side (a.swept now id side price qty type)).setRungs side
          (insertOrder side price ⟨id, qty, (a.swept now id side price qty type).left⟩
            (a.rungs side))).giveBack
  /-- Nothing is left, or it is dropped. -/
  | finished (hqty : qty ≠ 0) (hid : ¬ a.Rests id) (hroom : a.orderCount < a.orderSlots)
      (hdone : (a.swept now id side price qty type).left = 0 ∨ type ≠ .limit) :
      AddCase now id side price qty type a
        (.events (a.swept now id side price qty type).events)
        (a.afterSweep side (a.swept now id side price qty type)).giveBack

/-- The own side is not swept. -/
@[simp] theorem Ladder.afterSweep_own (a : Ladder) (side : Side) (m : Swept) :
    (a.afterSweep side m).rungs side = a.rungs side :=
  Ladder.setRungs_rungs_ne a (Side.opposite_ne side).symm m.rungs

@[simp] theorem Ladder.afterSweep_opposite (a : Ladder) (side : Side) (m : Swept) :
    (a.afterSweep side m).rungs side.opposite = m.rungs :=
  Ladder.setRungs_rungs_self a side.opposite m.rungs

/-- **EVERY CALL** to `addOrder` ends in one of these ways. -/
theorem addOrder_cases (now : Nat → Timestamp) (id : OrderId) (side : Side)
    (price : Price) (qty : Quantity) (type : OrderType) (a : Ladder) :
    AddCase now id side price qty type a (Ladder.addOrder now id side price qty type a).1
      (Ladder.addOrder now id side price qty type a).2 := by
  rw [Ladder.addOrder]
  by_cases hbad : qty = 0 ∨ a.Rests id
  · rw [if_pos hbad]
    exact .rejected hbad
  · obtain ⟨hqty, hid⟩ := not_or.mp hbad
    rw [if_neg hbad]
    by_cases hfull : a.orderSlots ≤ a.orderCount
    · rw [if_pos hfull]
      exact .refused hqty hid hfull
    · have hroom : a.orderCount < a.orderSlots := Nat.lt_of_not_le hfull
      rw [if_neg hfull]
      dsimp only
      by_cases hrest : (a.swept now id side price qty type).left > 0 ∧ type = .limit
      · have hleft : (a.swept now id side price qty type).left ≠ 0 := by
          rw [Ne, quantity_zero]
          exact Nat.ne_of_gt (quantity_pos.mp hrest.1)
        rw [if_pos hrest]
        by_cases hlevel :
            (a.afterSweep side (a.swept now id side price qty type)).HasLevel side price
            ∨ (a.afterSweep side (a.swept now id side price qty type)).levelCount
              < (a.afterSweep side (a.swept now id side price qty type)).levelSlots
        · rw [if_pos hlevel, Ladder.afterSweep_own]
          exact .rested hqty hid hroom hleft hrest.2 hlevel
        · rw [if_neg hlevel]
          obtain ⟨hno, hslots⟩ := not_or.mp hlevel
          exact .leaked hqty hid hroom hleft hrest.2 hno (Nat.le_of_not_lt hslots)
      · rw [if_neg hrest]
        refine .finished hqty hid hroom ?_
        by_cases hlimit : type = .limit
        · left
          rw [quantity_zero]
          have hno : ¬ (a.swept now id side price qty type).left > 0 :=
            fun h => hrest ⟨h, hlimit⟩
          rw [quantity_pos] at hno
          omega
        · exact Or.inr hlimit

/-- The case determines the outcome and the book that is left. -/
theorem AddCase.eq {out : Outcome} {b : Ladder}
    (h : AddCase now id side price qty type a out b) :
    Ladder.addOrder now id side price qty type a = (out, b) := by
  have hpos : (a.swept now id side price qty type).left ≠ 0
      ↔ (a.swept now id side price qty type).left > 0 := by
    rw [Ne, quantity_zero, quantity_pos, Nat.pos_iff_ne_zero]
  rw [Ladder.addOrder]
  cases h with
  | rejected hbad => rw [if_pos hbad]
  | refused hqty hid hfull => rw [if_neg (not_or.mpr ⟨hqty, hid⟩), if_pos hfull]
  | leaked hqty hid hroom hleft hlimit hlevel hfull =>
      rw [if_neg (not_or.mpr ⟨hqty, hid⟩), if_neg (Nat.not_le_of_lt hroom)]
      dsimp only
      rw [if_pos ⟨hpos.mp hleft, hlimit⟩]
      exact if_neg (not_or.mpr ⟨hlevel, Nat.not_lt_of_le hfull⟩)
  | rested hqty hid hroom hleft hlimit hlevel =>
      rw [if_neg (not_or.mpr ⟨hqty, hid⟩), if_neg (Nat.not_le_of_lt hroom)]
      dsimp only
      rw [if_pos ⟨hpos.mp hleft, hlimit⟩, Ladder.afterSweep_own]
      exact if_pos hlevel
  | finished hqty hid hroom hdone =>
      have hno : ¬ ((a.swept now id side price qty type).left > 0 ∧ type = .limit) :=
        fun h => hdone.elim (hpos.mpr h.1) fun hlimit => hlimit h.2
      rw [if_neg (not_or.mpr ⟨hqty, hid⟩), if_neg (Nat.not_le_of_lt hroom)]
      dsimp only
      rw [if_neg hno]

/-! ## The invariant -/

/-- A well-formed book. -/
structure Ladder.WF (a : Ladder) : Prop where
  side      : ∀ side, SideWF side (a.rungs side)
  ids       : ((a.queue .buy ++ a.queue .sell).map RestingOrder.id).Nodup
  uncrossed : ∀ side, ∀ lv ∈ a.rungs side, ∀ lv' ∈ a.rungs side.opposite,
    side.comparator lv'.price lv.price
  orders_le : a.orderCount ≤ a.orderSlots
  levels_le : a.levelCount ≤ a.levelSlots

theorem Side.comparator_opposite (side : Side) (p p' : Price) :
    side.opposite.comparator p p' ↔ side.comparator p' p := by
  cases side <;> exact Iff.rfl

/-- Uncrossed is symmetric in the sides. -/
theorem uncrossed_symm {a : Ladder} {side : Side}
    (h : ∀ lv ∈ a.rungs side, ∀ lv' ∈ a.rungs side.opposite,
      side.comparator lv'.price lv.price) :
    ∀ side', ∀ lv ∈ a.rungs side', ∀ lv' ∈ a.rungs side'.opposite,
      side'.comparator lv'.price lv.price := by
  intro side' lv hlv lv' hlv'
  by_cases hs : side' = side
  · subst hs
    exact h lv hlv lv' hlv'
  · obtain rfl := Side.eq_opposite hs
    rw [Side.opposite_opposite] at hlv'
    rw [Side.comparator_opposite]
    exact h lv' hlv' lv hlv

/-- A side and the other one, in this order. -/
theorem queues_perm (a : Ladder) (side : Side) :
    (a.queue side ++ a.queue side.opposite).Perm (a.queue .buy ++ a.queue .sell) := by
  cases side
  · exact List.Perm.refl _
  · exact List.perm_append_comm

theorem Ladder.WF.ids_side (h : a.WF) (side : Side) :
    ((a.queue side ++ a.queue side.opposite).map RestingOrder.id).Nodup :=
  ((queues_perm a side).map RestingOrder.id).nodup_iff.mpr h.ids

theorem Ladder.orderCount_eq (a : Ladder) (side : Side) :
    a.orderCount = ordersIn (a.rungs side) + ordersIn (a.rungs side.opposite) := by
  cases side
  · rfl
  · exact Nat.add_comm _ _

theorem Ladder.levelCount_eq (a : Ladder) (side : Side) :
    a.levelCount = (a.rungs side).length + (a.rungs side.opposite).length := by
  cases side
  · rfl
  · exact Nat.add_comm _ _

/-- Setting the levels of a side changes the counts by what is on them. -/
theorem Ladder.orderCount_setRungs (a : Ladder) (side : Side) (rs : List Rung) :
    (a.setRungs side rs).orderCount + ordersIn (a.rungs side) = a.orderCount + ordersIn rs := by
  rw [Ladder.orderCount_eq _ side, Ladder.orderCount_eq a side, Ladder.setRungs_rungs_self,
    Ladder.setRungs_rungs_ne a (Side.opposite_ne side)]
  omega

theorem Ladder.levelCount_setRungs (a : Ladder) (side : Side) (rs : List Rung) :
    (a.setRungs side rs).levelCount + (a.rungs side).length = a.levelCount + rs.length := by
  rw [Ladder.levelCount_eq _ side, Ladder.levelCount_eq a side, Ladder.setRungs_rungs_self,
    Ladder.setRungs_rungs_ne a (Side.opposite_ne side)]
  omega

theorem ordersIn_eq (rungs : List Rung) :
    ordersIn rungs = (rungs.flatMap Rung.orders).length := by
  rw [List.length_flatMap]
  rfl

/-- Matching brings no id into the book. -/
theorem rests_afterSweep {now : Nat → Timestamp} {id id' : OrderId} {price : Price}
    {qty : Quantity} {type : OrderType}
    (h : (a.afterSweep side (a.swept now id side price qty type)).Rests id') :
    a.Rests id' := by
  obtain ⟨side', r, hr, hid⟩ := h
  by_cases hs : side' = side.opposite
  · subst hs
    have hmem : id' ∈ ((a.swept now id side price qty type).rungs.flatMap Rung.orders).map
        RestingOrder.id := by
      refine List.mem_map.mpr ⟨r, ?_, hid⟩
      have hr' : r ∈ ((a.setRungs side.opposite
          (a.swept now id side price qty type).rungs).rungs side.opposite).flatMap
          Rung.orders := hr
      rwa [Ladder.setRungs_rungs_self] at hr'
    obtain ⟨r', hr', hid'⟩ := List.mem_map.mp (sweep_ids.subset hmem)
    exact ⟨side.opposite, r', hr', hid'⟩
  · have hr' : r ∈ ((a.setRungs side.opposite
        (a.swept now id side price qty type).rungs).rungs side').flatMap Rung.orders := hr
    rw [Ladder.setRungs_rungs_ne a hs] at hr'
    exact ⟨side', r, hr', hid⟩

/-- Well-formedness, from the two sides. -/
theorem Ladder.WF.of_sides (side : Side) (hown : SideWF side (a.rungs side))
    (hother : SideWF side.opposite (a.rungs side.opposite))
    (hids : ((a.queue side ++ a.queue side.opposite).map RestingOrder.id).Nodup)
    (hcross : ∀ lv ∈ a.rungs side, ∀ lv' ∈ a.rungs side.opposite,
      side.comparator lv'.price lv.price)
    (horders : a.orderCount ≤ a.orderSlots) (hlevels : a.levelCount ≤ a.levelSlots) :
    a.WF where
  side := fun side' => by
    by_cases hs : side' = side
    · subst hs
      exact hown
    · obtain rfl := Side.eq_opposite hs
      exact hother
  ids := ((queues_perm a side).map RestingOrder.id).nodup_iff.mp hids
  uncrossed := uncrossed_symm hcross
  orders_le := horders
  levels_le := hlevels

theorem Ladder.WF.empty (maxOrders maxLevels : Nat) : (Ladder.empty maxOrders maxLevels).WF :=
  .of_sides .buy .nil .nil List.nodup_nil (fun _ h => absurd h List.not_mem_nil)
    (Nat.zero_le _) (Nat.zero_le _)

/-- Sweeping keeps a book well-formed. -/
theorem Ladder.WF.afterSweep (h : a.WF) (hroom : a.orderCount < a.orderSlots) :
    (a.afterSweep side (a.swept now id side price qty type)).WF := by
  have hprices : ((a.swept now id side price qty type).rungs.map Rung.price).Sublist
      ((a.rungs side.opposite).map Rung.price) := sweep_prices
  have hids : (((a.swept now id side price qty type).rungs.flatMap Rung.orders).map
      RestingOrder.id).Sublist
        (((a.rungs side.opposite).flatMap Rung.orders).map RestingOrder.id) := sweep_ids
  refine .of_sides side ?_ ?_ ?_ ?_ ?_ ?_
  · rw [Ladder.afterSweep_own]
    exact h.side side
  · rw [Ladder.afterSweep_opposite]
    exact (h.side side.opposite).sweep
  · rw [Ladder.queue, Ladder.queue, Ladder.afterSweep_own, Ladder.afterSweep_opposite,
      List.map_append]
    refine (h.ids_side side).sublist ?_
    rw [List.map_append]
    exact List.Sublist.append (List.Sublist.refl _) hids
  · rw [Ladder.afterSweep_own, Ladder.afterSweep_opposite]
    intro lv hlv lv' hlv'
    obtain ⟨x, hx, hp⟩ := List.mem_map.mp (hprices.subset (List.mem_map_of_mem hlv'))
    rw [← hp]
    exact h.uncrossed side lv hlv x hx
  · have hlen := hids.length_le
    rw [List.length_map, List.length_map, ← ordersIn_eq, ← ordersIn_eq] at hlen
    rw [Ladder.orderCount_eq _ side] at hroom ⊢
    rw [Ladder.afterSweep_own, Ladder.afterSweep_opposite]
    show _ + ordersIn (a.swept now id side price qty type).rungs ≤ a.orderSlots - 1
    omega
  · have hlen := hprices.length_le
    rw [List.length_map, List.length_map] at hlen
    have hle := h.levels_le
    rw [Ladder.levelCount_eq _ side] at hle ⊢
    rw [Ladder.afterSweep_own, Ladder.afterSweep_opposite]
    show _ + (a.swept now id side price qty type).rungs.length ≤ a.levelSlots
    omega

/-- Giving a slot back keeps a book well-formed. -/
theorem Ladder.WF.giveBack (h : a.WF) : a.giveBack.WF :=
  ⟨h.side, h.ids, h.uncrossed, Nat.le_succ_of_le h.orders_le, h.levels_le⟩

/-- Resting an order that crosses nothing keeps a book well-formed. -/
theorem Ladder.WF.rest (h : a.WF) {r : RestingOrder}
    (hr : 0 < r.remainingQty ∧ r.remainingQty ≤ r.quantity) (hid : ¬ a.Rests r.id)
    (hcross : ∀ lv ∈ a.rungs side.opposite, side.comparator lv.price price)
    (hlevel : a.HasLevel side price ∨ a.levelCount < a.levelSlots) :
    (a.setRungs side (insertOrder side price r (a.rungs side))).giveBack.WF := by
  have hne : side.opposite ≠ side := Side.opposite_ne side
  have hperm := insertOrder_orders (h.side side).sorted price r
  have hown : (a.setRungs side (insertOrder side price r (a.rungs side))).giveBack.rungs side
      = insertOrder side price r (a.rungs side) := Ladder.setRungs_rungs_self a side _
  have hother : (a.setRungs side (insertOrder side price r (a.rungs side))).giveBack.rungs
      side.opposite = a.rungs side.opposite := Ladder.setRungs_rungs_ne a hne _
  refine .of_sides side ?_ ?_ ?_ ?_ ?_ ?_
  · rw [hown]
    exact (h.side side).insert price hr
  · rw [hother]
    exact h.side side.opposite
  · have hold := h.ids_side side
    rw [Ladder.queue, Ladder.queue, hown, hother]
    refine ((hperm.append_right _).map RestingOrder.id).nodup_iff.mpr ?_
    rw [List.cons_append, List.map_cons]
    refine List.nodup_cons.mpr ⟨fun hmem => ?_, hold⟩
    obtain ⟨x, hx, hxid⟩ := List.mem_map.mp hmem
    rcases List.mem_append.mp hx with hx | hx
    · exact hid ⟨side, x, hx, hxid⟩
    · exact hid ⟨side.opposite, x, hx, hxid⟩
  · rw [hown, hother]
    intro lv hlv lv' hlv'
    -- the level at the price is the only one that can be new
    have hprice : lv.price = price ∨ ∃ x ∈ a.rungs side, x.price = lv.price := by
      rcases insertOrder_cases (h.side side).sorted price r with
        ⟨A, x, B, hsplit, hp, hins⟩ | ⟨A, B, hsplit, -, -, hins⟩
      · rw [hins] at hlv
        rcases List.mem_append.mp hlv with hlv | hlv
        · exact Or.inr ⟨lv, by simp [hsplit, hlv], rfl⟩
        · rcases List.mem_cons.mp hlv with rfl | hlv
          · exact Or.inl hp
          · exact Or.inr ⟨lv, by simp [hsplit, hlv], rfl⟩
      · rw [hins] at hlv
        rcases List.mem_append.mp hlv with hlv | hlv
        · exact Or.inr ⟨lv, by simp [hsplit, hlv], rfl⟩
        · rcases List.mem_cons.mp hlv with rfl | hlv
          · exact Or.inl rfl
          · exact Or.inr ⟨lv, by simp [hsplit, hlv], rfl⟩
    rcases hprice with hp | ⟨x, hx, hp⟩
    · rw [hp]
      exact hcross lv' hlv'
    · rw [← hp]
      exact h.uncrossed side x hx lv' hlv'
  · have hlen := hperm.length_eq
    rw [← ordersIn_eq, List.length_cons, ← ordersIn_eq] at hlen
    have hle := h.orders_le
    rw [Ladder.orderCount_eq _ side] at hle ⊢
    rw [hown, hother, hlen]
    show _ ≤ a.orderSlots + 1
    omega
  · have hle := h.levels_le
    rw [Ladder.levelCount_eq _ side] at hle ⊢
    rw [hown, hother]
    show _ ≤ a.levelSlots
    rcases insertOrder_cases (h.side side).sorted price r with
      ⟨A, x, B, hsplit, -, hins⟩ | ⟨A, B, hsplit, hA, hB, hins⟩
    · rw [hins]
      rw [hsplit] at hle
      simpa using hle
    · -- a level was opened, so there was none
      have hroom : a.levelCount < a.levelSlots := by
        refine hlevel.resolve_left ?_
        rintro ⟨lv, hlv, rfl⟩
        rw [hsplit] at hlv
        rcases List.mem_append.mp hlv with hlv | hlv
        · exact irrefl_of side.comparator _ (hA lv hlv)
        · exact irrefl_of side.comparator _ (hB lv hlv)
      rw [Ladder.levelCount_eq _ side, hsplit] at hroom
      rw [hins]
      simp only [List.length_append, List.length_cons] at hroom ⊢
      omega

/-- Cancelling keeps a book well-formed. -/
theorem Ladder.WF.cancel (h : a.WF) (id : OrderId) :
    ({ a with rungs := fun side => cancelIn id (a.rungs side) } : Ladder).WF := by
  have hlevels : ∀ side, (cancelIn id (a.rungs side)).length ≤ (a.rungs side).length :=
    fun side => List.length_filterMap_le _ _
  have horders : ∀ side, ordersIn (cancelIn id (a.rungs side)) ≤ ordersIn (a.rungs side) := by
    intro side
    rw [ordersIn_eq, ordersIn_eq, cancelIn_orders]
    exact List.length_filter_le _ _
  refine .of_sides .buy ((h.side .buy).cancel id) ((h.side .sell).cancel id) ?_ ?_ ?_ ?_
  · refine h.ids.sublist (List.Sublist.map _ ?_)
    show ((cancelIn id (a.rungs .buy)).flatMap Rung.orders
      ++ (cancelIn id (a.rungs .sell)).flatMap Rung.orders).Sublist _
    rw [cancelIn_orders, cancelIn_orders]
    exact List.Sublist.append List.filter_sublist List.filter_sublist
  · intro lv hlv lv' hlv'
    obtain ⟨x, hx, hp, -⟩ := cancelIn_level hlv
    obtain ⟨x', hx', hp', -⟩ := cancelIn_level hlv'
    rw [hp, hp']
    exact h.uncrossed .buy x hx x' hx'
  · exact Nat.le_trans (Nat.add_le_add (horders .buy) (horders .sell)) h.orders_le
  · exact Nat.le_trans (Nat.add_le_add (hlevels .buy) (hlevels .sell)) h.levels_le

/-- What is left of the other side, beyond the limit of the order that rests. -/
theorem Ladder.WF.rest_uncrossed (h : a.WF) (hlimit : type = .limit)
    (hleft : (a.swept now id side price qty type).left ≠ 0) :
    ∀ lv ∈ (a.afterSweep side (a.swept now id side price qty type)).rungs side.opposite,
      side.comparator lv.price price := by
  rw [Ladder.afterSweep_opposite]
  intro lv hlv
  rw [← Side.comparator_opposite]
  exact (h.side side.opposite).sweep_beyond hlimit hleft lv hlv

/-- **THE INVARIANT** is kept by every call. -/
theorem Ladder.WF.step (h : a.WF) (c : Call) : (Ladder.step c a).2.WF := by
  obtain ⟨op, now⟩ := c
  cases op with
  | cancelOrder id =>
      show (Ladder.cancelOrder id a).2.WF
      rw [Ladder.cancelOrder]
      by_cases hr : a.Rests id
      · rw [if_pos hr]
        exact h.cancel id
      · rw [if_neg hr]
        exact h
  | addOrder id side price qty type =>
      show (Ladder.addOrder now id side price qty type a).2.WF
      have hcase := addOrder_cases now id side price qty type a
      generalize Ladder.addOrder now id side price qty type a = v at hcase ⊢
      obtain ⟨out, b⟩ := v
      cases hcase with
      | rejected => exact h
      | refused => exact h
      | leaked _ _ hroom => exact h.afterSweep hroom
      | finished _ _ hroom => exact (h.afterSweep hroom).giveBack
      | rested _ hid hroom hleft hlimit hlevel =>
          have hb : (a.afterSweep side (a.swept now id side price qty type)).WF :=
            h.afterSweep hroom
          have hpos : 0 < (a.swept now id side price qty type).left := by
            rw [Ne, quantity_zero] at hleft
            exact quantity_pos.mpr (Nat.pos_of_ne_zero hleft)
          have hrest := hb.rest
            (r := ⟨id, qty, (a.swept now id side price qty type).left⟩)
            ⟨hpos, UInt32.le_iff_toNat_le.mpr sweep_left_le⟩
            (fun hr => hid (rests_afterSweep hr)) (h.rest_uncrossed hlimit hleft) hlevel
          rwa [Ladder.afterSweep_own] at hrest

/-- A sweep that leaves everything only takes a slot. -/
theorem Ladder.afterSweep_idle (a : Ladder) (side : Side) (left : Quantity) :
    a.afterSweep side ⟨[], left, a.rungs side.opposite⟩
      = { a with orderSlots := a.orderSlots - 1 } := by
  rw [Ladder.afterSweep, Ladder.setRungs, Function.update_eq_self]
  rfl

/-! ## The second throw -/

/-- **THE LEAKING CASE** has traded nothing: a fill would have emptied a level of
    the other side, and its slot would have served the new level. -/
theorem AddCase.leaked_idle (h : a.WF) (hlimit : type = .limit)
    (hleft : (a.swept now id side price qty type).left ≠ 0)
    (hfull : a.levelSlots
      ≤ (a.afterSweep side (a.swept now id side price qty type)).levelCount) :
    a.swept now id side price qty type = ⟨[], qty, a.rungs side.opposite⟩
      ∧ ∀ lv ∈ a.rungs side.opposite, side.opposite.comparator price lv.price := by
  have hside := h.side side.opposite
  obtain ⟨gone, hsplit, -, -, hidle⟩ := sweep_open hside.nonempty hleft
  have hgone : gone = [] := by
    have hle := h.levels_le
    rw [Ladder.levelCount_eq _ side] at hle hfull
    rw [Ladder.afterSweep_own, Ladder.afterSweep_opposite] at hfull
    have hlen : (a.rungs side.opposite).length = gone.length
        + (a.swept now id side price qty type).rungs.length := by
      rw [hsplit, List.length_append]
      rfl
    exact List.eq_nil_of_length_eq_zero (by omega)
  have heq : a.swept now id side price qty type = ⟨[], qty, a.rungs side.opposite⟩ :=
    hidle hgone
  refine ⟨heq, ?_⟩
  have hbeyond := hside.sweep_beyond hlimit hleft
  rw [show (sweep now id (beyondLimit side.opposite price type) 0 qty
    (a.rungs side.opposite)).rungs = a.rungs side.opposite from congrArg Swept.rungs heq]
    at hbeyond
  exact hbeyond

end Calls

end Lob
